import PerpRollout.Proofs.Plan.Missing
import PerpRollout.Proofs.Record.Resolving

/-!
# The next step only moves forward

The next step is the one that is open while all before it are done
(`Record.nextStep?_eq_some_iff`). A step that is done stays done when more steps are listed
as completed and more slots are filled, so the next step stays or moves forward
(`Record.nextStep?_mono`). It is ready once the addresses that no step yields are there, since
an earlier step yields whatever else it needs (`Step.yielded_earlier`).
-/

namespace PerpRollout

/-- The first item with a property has it, and none has it that first occurs earlier. -/
theorem find?_eq_some_iff_idxOf {α : Type} [DecidableEq α] {p : α → Bool} {items : List α} {a : α}
    (ha : a ∈ items) : items.find? p = some a ↔
      p a = true ∧ ∀ b, items.idxOf b < items.idxOf a → p b = false := by
  induction items with
  | nil => cases ha
  | cons x items ih =>
      by_cases hxa : x = a
      · subst hxa
        simp only [List.idxOf_cons_self, Nat.not_lt_zero, false_imp_iff, implies_true, and_true]
        exact ⟨List.find?_some, List.find?_cons_of_pos⟩
      · have hmem : a ∈ items := List.mem_of_ne_of_mem (Ne.symm hxa) ha
        rw [List.idxOf_cons_ne _ hxa]
        cases hx : p x with
        | true =>
            rw [List.find?_cons_of_pos hx]
            constructor
            · intro h
              exact absurd (Option.some.inj h) hxa
            · rintro ⟨-, hno⟩
              have hfirst := hno x (by simp)
              rw [hx] at hfirst
              cases hfirst
        | false =>
            rw [List.find?_cons_of_neg (by simp [hx]), ih hmem]
            refine and_congr_right fun _ => forall_congr' fun b => ?_
            by_cases hxb : x = b
            · subst hxb
              simp [hx]
            · rw [List.idxOf_cons_ne _ hxb, Nat.succ_lt_succ_iff]

namespace Step

/-- The place of the step in the order, counted from zero. -/
def position (s : Step) : Nat :=
  order.idxOf s

/-- What a step needs is an address that no step yields, or what an earlier step yields. -/
theorem yielded_earlier (s : Step) : ∀ m ∈ s.requirements,
    m = .oracleHub ∨ m = .feePool ∨ ∃ t ∈ order, t.position < s.position ∧ t.output? = some m := by
  cases s <;> decide

/-- One of the values names the step. -/
def Named (names : List Json) (s : Step) : Prop :=
  ∃ v ∈ names, parse v = .ok s

/-- Values that each name a step are read as the steps they name. -/
theorem exists_parse_named {names : List Json} (h : ∀ v ∈ names, ∃ s, parse v = .ok s) :
    ∃ completed, names.mapM parse = .ok completed ∧ ∀ s, s ∈ completed ↔ Named names s := by
  induction names with
  | nil => exact ⟨[], rfl, by simp [Named]⟩
  | cons v names ih =>
      obtain ⟨⟨t, ht⟩, hnames⟩ := List.forall_mem_cons.mp h
      obtain ⟨completed, hcompleted, hmem⟩ := ih hnames
      refine ⟨t :: completed, ?_, fun s => ?_⟩
      · rw [List.mapM_cons, ht, ok_bind, hcompleted, ok_bind]
        rfl
      · rw [List.mem_cons, hmem, Named, Named, List.exists_mem_cons_iff, ht, Except.ok.injEq,
          eq_comm]

end Step

namespace Record

open Deployment (insured isDone_iff isResolved_setAddress)

variable {r r' : Record} {completed completed' : List Step} {s : Step}

/-! ## Which step is next -/

/-- The next step is open, and all steps before it are done. -/
theorem nextStep?_eq_some_iff : r.nextStep? completed = some s ↔
    r.isDone completed s = false ∧
      ∀ t : Step, t.position < s.position → r.isDone completed t = true := by
  rw [nextStep?, find?_eq_some_iff_idxOf s.mem_order]
  simp only [Bool.not_eq_true', Bool.not_eq_false', Step.position]

theorem nextStep?_eq_none_iff :
    r.nextStep? completed = none ↔ ∀ t, r.isDone completed t = true := by
  rw [nextStep?, List.find?_eq_none]
  simp [Step.mem_order]

/-- As more steps are done the next step stays or moves forward, and there is none where there
was none. -/
theorem nextStep?_mono (hdone : ∀ t, r.isDone completed t = true → r'.isDone completed' t = true) :
    (r.nextStep? completed = none → r'.nextStep? completed' = none) ∧
    ∀ s t, r.nextStep? completed = some s → r'.nextStep? completed' = some t →
      s.position ≤ t.position := by
  constructor
  · simp only [nextStep?_eq_none_iff]
    exact fun h t => hdone t (h t)
  · intro s t hs ht
    by_contra hlt
    have hearlier := hdone t ((nextStep?_eq_some_iff.mp hs).2 t (Nat.lt_of_not_le hlt))
    rw [(nextStep?_eq_some_iff.mp ht).1] at hearlier
    cases hearlier

/-! ## What stays done -/

theorem isResolved_withAddresses {calls : List (Json × Json)}
    (h : (r.withAddresses calls).result = .ok r') {m : Module} (hm : r.isResolved m = true) :
    r'.isResolved m = true := by
  induction calls generalizing r with
  | nil =>
      cases h
      exact hm
  | cons call calls ih =>
      rw [withAddresses, List.foldlM_cons, Logged.result_bind_eq_ok_iff] at h
      obtain ⟨next, hcall, hrest⟩ := h
      obtain ⟨n, a, -, -, -, rfl⟩ := result_withAddress_eq_ok_iff.mp hcall
      exact ih hrest (isResolved_setAddress hm n a)

theorem isDone_mono (hcompleted : ∀ t ∈ completed, t ∈ completed')
    (hresolved : ∀ m, r.isResolved m = true → r'.isResolved m = true)
    (h : r.isDone completed s = true) : r'.isDone completed' s = true := by
  rw [isDone_iff] at h ⊢
  exact h.imp (hcompleted s) fun ⟨m, hm, hr⟩ => ⟨m, hm, hresolved m hr⟩

/-- The next step is ready, where what no step yields is there and so is what the listed steps
yield. -/
theorem isReady_of_nextStep? (h : r.nextStep? completed = some s)
    (hhub : r.isResolved .oracleHub = true) (hfees : r.isResolved .feePool = true)
    (hyield : ∀ t ∈ completed, ∀ m ∈ t.output?, r.isResolved m = true) : r.isReady s = true := by
  rw [isReady_iff]
  intro m hm
  rcases s.yielded_earlier m hm with rfl | rfl | ⟨t, -, hearlier, houtput⟩
  · exact hhub
  · exact hfees
  · rcases isDone_iff.mp ((nextStep?_eq_some_iff.mp h).2 t hearlier) with hlisted | ⟨n, hn, hr⟩
    · exact hyield t hlisted m houtput
    · cases hn.symm.trans houtput
      exact hr

/-- Take any record and values that each name a step, in any spelling. There is then a next
step or none; it is not among those named and what it yields is not resolved, and every step
before it is named or has what it yields resolved. If what no step yields is there, and what
the named steps yield, the next step is ready. After any calls that resolve addresses, and
with values that name at least the same steps, there is again none, or the same step or a
later one. -/
theorem nextAfter_advances {calls : List (Json × Json)}
    (hcalls : (r.withAddresses calls).result = .ok r') {names names' : List Json}
    (hnames : ∀ v ∈ names, ∃ s, Step.parse v = .ok s)
    (hnames' : ∀ v ∈ names', ∃ s, Step.parse v = .ok s)
    (hmore : ∀ s, Step.Named names s → Step.Named names' s) :
    ∃ next next', r.nextAfter names = .ok next ∧ r'.nextAfter names' = .ok next' ∧
      (next = none → next' = none) ∧
      ∀ s, next = some s →
        (∀ t, next' = some t → s.position ≤ t.position) ∧
        ¬Step.Named names s ∧ (∀ m ∈ s.output?, r.isResolved m = false) ∧
        (∀ t : Step, t.position < s.position →
          Step.Named names t ∨ ∃ m ∈ t.output?, r.isResolved m = true) ∧
        (r.isResolved .oracleHub = true → r.isResolved .feePool = true →
          (∀ t, Step.Named names t → ∀ m ∈ t.output?, r.isResolved m = true) →
          r.isReady s = true) := by
  obtain ⟨completed, hcompleted, hmem⟩ := Step.exists_parse_named hnames
  obtain ⟨completed', hcompleted', hmem'⟩ := Step.exists_parse_named hnames'
  have hdone (t : Step) (ht : r.isDone completed t = true) : r'.isDone completed' t = true := by
    refine isDone_mono (fun t ht => ?_) (fun m => isResolved_withAddresses hcalls) ht
    exact (hmem' t).mpr (hmore t ((hmem t).mp ht))
  obtain ⟨hnone, hforward⟩ := nextStep?_mono hdone
  refine ⟨r.nextStep? completed, r'.nextStep? completed', ?_, ?_, hnone, fun s hs => ?_⟩
  · rw [nextAfter, hcompleted]
    rfl
  · rw [nextAfter, hcompleted']
    rfl
  · obtain ⟨hopen, hearlier⟩ := nextStep?_eq_some_iff.mp hs
    have hno := mt isDone_iff.mpr (Bool.eq_false_iff.mp hopen)
    rw [not_or] at hno
    refine ⟨fun t => hforward s t hs, ?_, ?_, ?_, ?_⟩
    · rw [← hmem]
      exact hno.1
    · intro m hm
      rw [Bool.eq_false_iff]
      exact fun hr => hno.2 ⟨m, hm, hr⟩
    · intro t ht
      rw [← hmem]
      exact isDone_iff.mp (hearlier t ht)
    · intro hhub hfees hyield
      exact isReady_of_nextStep? hs hhub hfees fun t ht => hyield t ((hmem t).mp ht)

/-- The engine and the insurance fund are named, the fund's address being there: the price feed
comes next, and is ready. With its address there and a step named twice, the market maker does. -/
theorem nextAfter_advances_of_insured :
    insured.nextAfter [.str " Engine\t", .str "INSURANCE_fund"] = .ok (some .pricefeed) ∧
    insured.isReady .pricefeed = true ∧
    ∃ r' t, (insured.withAddresses [(.str "PriceFeed", .str "feed")]).result = .ok r' ∧
      r'.nextAfter [.str "insurance_fund", .str "engine", .str "engine"] = .ok (some t) ∧
      Step.position .pricefeed ≤ t.position := by
  have hengine : Step.parse (.str " Engine\t") = .ok .engine := rfl
  have hfund : Step.parse (.str "INSURANCE_fund") = .ok .insuranceFund := rfl
  have hcalls : (insured.withAddresses [(.str "PriceFeed", .str "feed")]).result =
      .ok (insured.setAddress .pricefeed "feed") := rfl
  have hnext : insured.nextAfter [.str " Engine\t", .str "INSURANCE_fund"] =
      .ok (some .pricefeed) := rfl
  have hnext' : (insured.setAddress .pricefeed "feed").nextAfter
      [.str "insurance_fund", .str "engine", .str "engine"] = .ok (some .vamm) := rfl
  have hnames : ∀ v ∈ [Json.str " Engine\t", .str "INSURANCE_fund"], ∃ s, Step.parse v = .ok s := by
    simp [hengine, hfund]
  have hnames' : ∀ v ∈ [Json.str "insurance_fund", .str "engine", .str "engine"],
      ∃ s, Step.parse v = .ok s := by
    have hengine' : Step.parse (.str "engine") = .ok .engine := rfl
    have hfund' : Step.parse (.str "insurance_fund") = .ok .insuranceFund := rfl
    simp [hengine', hfund']
  have hnamed (s : Step) (hs : Step.Named [.str " Engine\t", .str "INSURANCE_fund"] s) :
      s = .engine ∨ s = .insuranceFund := by
    obtain ⟨v, hv, hs⟩ := hs
    rcases List.mem_pair.mp hv with rfl | rfl
    · exact .inl (Except.ok.inj (hs.symm.trans hengine))
    · exact .inr (Except.ok.inj (hs.symm.trans hfund))
  have hmore (s : Step) (hs : Step.Named [.str " Engine\t", .str "INSURANCE_fund"] s) :
      Step.Named [.str "insurance_fund", .str "engine", .str "engine"] s := by
    rcases hnamed s hs with rfl | rfl
    · exact ⟨.str "engine", by simp, rfl⟩
    · exact ⟨.str "insurance_fund", by simp, rfl⟩
  obtain ⟨next, next', h, h', -, hstep⟩ := nextAfter_advances hcalls hnames hnames' hmore
  cases hnext.symm.trans h
  cases hnext'.symm.trans h'
  obtain ⟨hforward, -, -, -, hready⟩ := hstep .pricefeed rfl
  refine ⟨hnext, hready rfl rfl ?_, _, .vamm, hcalls, hnext', hforward .vamm rfl⟩
  intro t ht m hm
  rcases hnamed t ht with rfl | rfl
  · cases hm
  · cases hm
    rfl

end Record

end PerpRollout
