import PerpRollout.Proofs.CommandLine.Run
import PerpRollout.Proofs.Record.Derived

/-!
# The summary of a record

Of a record that nothing is wrong with, every value of a summary can be derived and printed
(`exists_summaryJson`). So a run that asks for the summary of such a record ends with 0, as long
as it can log and, where it asks for a ledger, open it (`exit_of_summarizes`).
-/

namespace PerpRollout.CommandLine

open Ledger (Tables)
open Numeral (IsShort value)

variable {r : Record} {registry : Registry} {edition : Edition} {env : Option String}
  {environment : String} {withLedger : Bool} {i : Invocation} {files files' : Files Content}
  {t : Tables}

/-! ## What is printed -/

theorem exists_unlessZero {numeral : String} {d : Except Failure Decimal} (hs : IsShort numeral)
    (hd : value numeral.toList ≠ 0 → ∃ q, d = .ok q) :
    ∃ v, unlessZero numeral d = .ok v ∧ v.isWritable = true := by
  rw [unlessZero, Vamm.reserve_eq hs, ok_bind]
  by_cases hzero : value numeral.toList = 0
  · exact ⟨.null, if_pos (Int.natCast_eq_zero.mpr hzero), rfl⟩
  · obtain ⟨q, rfl⟩ := hd hzero
    exact ⟨.str q.plain, if_neg fun h => hzero (Int.natCast_eq_zero.mp h), rfl⟩

theorem isWritable_modulesJson (ms : List Module) : (modulesJson ms).isWritable = true := by
  refine Json.itemsWritable_iff.mpr fun v hv => ?_
  obtain ⟨m, -, rfl⟩ := List.mem_map.mp hv
  rfl

/-- A number of 256 bits can be written. -/
theorem isWritable_product (h : r.IsBounded) :
    Numeral.isWritable
      ((value r.vamm.quoteReserve.toList * value r.vamm.baseReserve.toList : ℕ) : ℤ) = true := by
  have hwide : 2 ^ 256 - 1 < 10 ^ 80 := by decide
  rw [Numeral.isWritable_natCast_iff]
  exact ((h.quoteReserve.product_le h.baseReserve).trans_lt hwide).trans
    (Nat.pow_lt_pow_right (by decide) (by decide))

theorem exists_summaryJson (h : r.IsBounded)
    (hperiod : Numeral.isWritable r.vamm.fundingPeriod = true) (environment : String) :
    ∃ v, summaryJson environment r = .ok v ∧ v.isWritable = true := by
  obtain ⟨price, hprice, hprice'⟩ :=
    exists_unlessZero h.base (Vamm.exists_initialSpotPrice_iff h.quote h.base).mpr
  obtain ⟨leverage, hleverage, hleverage'⟩ :=
    exists_unlessZero h.margin.isShort (Engine.exists_maxLeverage_iff h.margin).mpr
  obtain ⟨toll, htoll, -⟩ := h.toll.exists_toDecimal "value"
  have hsummary : summaryJson environment r = .ok (.obj [
      ("environment", .str environment),
      ("pair", .str r.vamm.pair),
      ("initial_price", price),
      ("k", .int (value r.vamm.quoteReserve.toList * value r.vamm.baseReserve.toList : ℕ)),
      ("max_leverage", leverage),
      ("funding_period_seconds", .int r.vamm.fundingPeriod),
      ("toll_ratio", .str toll.plain),
      ("unresolved", modulesJson r.unresolved)]) := by
    rw [summaryJson, hprice, ok_bind, Vamm.initialK_eq h.quote h.base, ok_bind, hleverage, ok_bind,
      htoll, ok_bind]
    rfl
  refine ⟨_, hsummary, Json.membersWritable_iff.mpr ?_⟩
  simp only [List.forall_mem_cons, List.not_mem_nil]
  exact ⟨rfl, rfl, hprice', isWritable_product h, hleverage', hperiod, rfl,
    isWritable_modulesJson _, by simp⟩

/-! ## What the command does -/

/-- A record from the ledger is the record of the registry with slots set. -/
theorem ensures_loadRecord_of_opens (hget : (registry.get (.str environment)).result = .ok edition)
    (addresses : withLedger = true → ∀ row ∈ t.addresses, IsAddress row.address) :
    (loadRecord i registry environment withLedger).Ensures
      (fun files => withLedger = true → Ledger.Opens i.databaseUrl files t)
      (fun record _ => ∃ steps, record = edition.record.setAll steps) fun _ => False := by
  have opens (h : withLedger = true) : (openLedger i.databaseUrl).Ensures
      (fun files => withLedger = true → Ledger.Opens i.databaseUrl files t)
      (fun l _ => l = ⟨some t⟩ ∧ True) fun _ => False := by
    intro files hopens
    rw [openLedger, hopens h]
    exact ⟨rfl, trivial⟩
  refine (ensures_loadRecord_of_openLedger hget opens (fun _ _ _ => trivial) addresses).mono ?_
    fun _ h => h
  rintro record files ⟨rfl, -⟩
  cases withLedger with
  | false => exact ⟨[], rfl⟩
  | true => exact ⟨t.history environment, (Ledger.setAll_eq_fill ..).symm⟩

/-- A record that nothing is wrong with is summed up whatever the environment is called. -/
theorem ensures_summary (hcheck : Rules.check r env .template = .ok []) (hwritable : r.IsWritable)
    (environment : String) :
    Act.Ensures (do
      let _ ← Rules.validate r (some environment) .template
      printed (← summaryJson environment r)) (fun _ => True) (fun _ _ => True) fun _ => False := by
  have hperiod : Numeral.isWritable r.vamm.fundingPeriod = true :=
    (Record.forall_mem_values.mp hwritable).1 .vamm (by simp [Record.objectSections])
      ("funding_period", .integer r.vamm.fundingPeriod)
      (by simp [Record.sectionValues, Vamm.values])
  have hvalid : (Rules.validate r (some environment) .template).result = .ok r := by
    rw [Rules.validate, Rules.check_template_eq_nil hcheck]
    rfl
  obtain ⟨v, hv, hv'⟩ := exists_summaryJson (Rules.isBounded_of_check hcheck) hperiod environment
  refine Act.Ensures.lift_bind_of_ok hvalid (Act.Ensures.lift_bind_of_ok hv ?_)
  refine (ensures_printed v _).mono (fun _ _ _ => trivial) ?_
  rintro files ⟨hno, -⟩
  rw [hv'] at hno
  cases hno

/-! ## Runs -/

/-- A run asks for the summary of the record that its registry has for an environment. It can
log, and not in the place of the registry, and a ledger that it asks for can be opened, with
addresses in all rows. -/
structure Invocation.Summarizes (i : Invocation) (files : Files Content) (environment : String)
    (withLedger : Bool) (r : Record) : Prop where
  command : i.command = .summary environment withLedger
  registry : ∃ registry edition, (Registry.source files i.configFile 0).result = .ok registry ∧
    (registry.get (.str environment)).result = .ok edition ∧ edition.record = r
  canLog : i.CanLog files
  apart : ∀ path ∈ i.logSettings.path?, path.root.isEmpty = true →
    ∀ file ∈ Registry.sourceFile? i.configFile, file.place ≠ path.place
  ledger : withLedger = true → ∃ t : Tables,
    (∀ ready, Logs i files ready → Ledger.Opens i.databaseUrl ready t) ∧
      ∀ row ∈ t.addresses, IsAddress row.address

/-- A log apart from the registry leaves the registry as it is. -/
theorem source_of_logs
    (apart : ∀ path ∈ i.logSettings.path?, path.root.isEmpty = true →
      ∀ file ∈ Registry.sourceFile? i.configFile, file.place ≠ path.place)
    (logs : Logs i files files')
    (hr : (Registry.source files i.configFile 0).result = .ok registry) :
    (Registry.source files' i.configFile 0).result = .ok registry := by
  rcases logs with rfl | ⟨path, hpath, lines, hlines⟩
  · exact hr
  · obtain ⟨hroot, grows⟩ := grows_of_appendLog hlines
    rw [Registry.source_congr rfl (fun file hfile => ?_) 0]
    · exact hr
    · obtain ⟨content, hcontent⟩ := Registry.exists_read_of_source hr file hfile
      rw [hcontent, grows.read hcontent (apart path hpath hroot file hfile)]

theorem ensures_perform_summary (hcommand : i.command = .summary environment withLedger)
    (hget : (registry.get (.str environment)).result = .ok edition)
    (hcheck : Rules.check edition.record env .template = .ok [])
    (addresses : withLedger = true → ∀ row ∈ t.addresses, IsAddress row.address) :
    (perform i).Ensures
      (fun files => (Registry.source files i.configFile 0).result = .ok registry ∧
        (withLedger = true → Ledger.Opens i.databaseUrl files t))
      (fun _ _ => True) fun _ => False := by
  unfold perform
  refine ensures_source_bind fun writable => ?_
  obtain ⟨e, he, hedition⟩ := Registry.result_get_eq_ok_iff.mp hget
  have hwritable : edition.record.IsWritable :=
    hedition ▸ writable e (Registry.mem_of_find? he)
  simp only [hcommand]
  refine Act.Ensures.bind (ensures_loadRecord_of_opens hget addresses) fun record => ?_
  refine Act.Ensures.of_known (fun _ h => And.intro h trivial) ?_
  rintro ⟨steps, rfl⟩
  have hcheck' : Rules.check (edition.record.setAll steps) env .template = .ok [] :=
    (Rules.check_template_setAll env edition.record steps).trans hcheck
  exact ensures_summary hcheck' (Record.isWritable_setAll hwritable steps) environment

/-- A run that asks for the summary of a record that nothing is wrong with ends with 0. -/
theorem exit_of_summarizes {defaults : Defaults} {arguments : List String}
    (hcheck : Rules.check r env .template = .ok [])
    (parsed : Invocation.parse defaults arguments = .ok i)
    (h : i.Summarizes files environment withLedger r) :
    ∃ output, (run defaults arguments files).ending = .exit 0 output := by
  obtain ⟨hcommand, ⟨registry, edition, hr, hget, rfl⟩, can, apart, ledger⟩ := h
  obtain ⟨t, hopens, addresses⟩ : ∃ t : Tables,
      (withLedger = true → ∀ ready, Logs i files ready → Ledger.Opens i.databaseUrl ready t) ∧
        (withLedger = true → ∀ row ∈ t.addresses, IsAddress row.address) := by
    cases withLedger with
    | false => exact ⟨{}, by simp, by simp⟩
    | true =>
        obtain ⟨t, hopens, addresses⟩ := ledger rfl
        exact ⟨t, fun _ => hopens, fun _ => addresses⟩
  obtain ⟨output, -, hending⟩ := exit_of_ensures parsed can
    (fun ready logs => And.intro (source_of_logs apart logs hr) fun hledger =>
      hopens hledger ready logs)
    (ensures_perform_summary hcommand hget hcheck addresses)
  exact ⟨output, hending⟩

theorem summary_of_check (hcheck : Rules.check r env .template = .ok []) (name : String) :
    (r.vamm.initialK =
        .ok ((value r.vamm.quoteReserve.toList * value r.vamm.baseReserve.toList : ℕ) : ℤ) ∧
      value r.vamm.quoteReserve.toList * value r.vamm.baseReserve.toList ≤ 2 ^ 256 - 1) ∧
    ((∃ price, r.vamm.initialSpotPrice = .ok price) ↔ value r.vamm.baseReserve.toList ≠ 0) ∧
    ((∃ leverage, r.engine.maxLeverage = .ok leverage) ↔
      value r.engine.initialMarginRatio.toList ≠ 0) ∧
    (∀ leverage, r.engine.maxLeverage = .ok leverage →
      1 ≤ leverage.toRat ∧ leverage.toRat ≤ 10 ^ r.engine.decimals) ∧
    (∃ toll, FixedPoint.toDecimal (.str r.vamm.tollRatio) r.vamm.decimals name = .ok toll ∧
      0 ≤ toll.toRat ∧ toll.toRat ≤ 1) ∧
    (∀ (defaults : Defaults) arguments files i environment withLedger,
      Invocation.parse defaults arguments = .ok i →
        i.Summarizes files environment withLedger r →
          ∃ output, (run defaults arguments files).ending = .exit 0 output) ∧
    ∀ r' env', Rules.check r' env' .template = .ok [] → r'.engine.decimals = r.engine.decimals →
      value r.engine.initialMarginRatio.toList ≠ 0 →
      value r.engine.initialMarginRatio.toList ≤ value r'.engine.initialMarginRatio.toList →
        ∃ leverage leverage', r.engine.maxLeverage = .ok leverage ∧
          r'.engine.maxLeverage = .ok leverage' ∧ leverage'.toRat ≤ leverage.toRat := by
  have h := Rules.isBounded_of_check hcheck
  obtain ⟨toll, htoll, hexact⟩ := h.toll.exists_toDecimal name
  refine ⟨⟨Vamm.initialK_eq h.quote h.base, h.quoteReserve.product_le h.baseReserve⟩,
    Vamm.exists_initialSpotPrice_iff h.quote h.base, Engine.exists_maxLeverage_iff h.margin,
    fun leverage => Engine.maxLeverage_bounds h.margin,
    ⟨toll, htoll, toll.toRat_nonneg, hexact ▸ h.toll.div_le_one⟩,
    fun _ _ _ _ _ _ parsed => exit_of_summarizes hcheck parsed, ?_⟩
  intro r' env' hcheck' hdecimals hzero hle
  exact Engine.maxLeverage_antitone h.margin (Rules.isBounded_of_check hcheck').margin hdecimals
    hzero hle

/-- The bundled record for local use. -/
def localRecord : Record where
  priceFeed := ⟨6, none⟩
  engine := ⟨6, "50000", "50000", "50000", none, none, none⟩
  vamm := ⟨6, "USDC", "ETH", "1200000000000", "1000000000", 3600, "0", "0", "0", none⟩
  assets := []

/-- The record with a larger initial margin. -/
def largerMargin : Record :=
  { localRecord with engine := { localRecord.engine with initialMarginRatio := "0062500" } }

/-- The bundled record has a leverage, a smaller one with a larger margin, and a summary, also
with the addresses of a new ledger. -/
theorem summary_of_check_of_local :
    Rules.check localRecord none .template = .ok [] ∧
      Rules.check largerMargin (some "main") .template = .ok [] ∧
      (∃ leverage leverage', localRecord.engine.maxLeverage = .ok leverage ∧
        largerMargin.engine.maxLeverage = .ok leverage' ∧ leverage'.toRat ≤ leverage.toRat ∧
        1 ≤ leverage.toRat ∧ leverage.toRat ≤ 10 ^ (6 : ℤ)) ∧
      ∃ output, (run { databaseUrl := "sqlite:///ledger.db" }
        ["summary", "--with-ledger", "local"] {}).ending = .exit 0 output := by
  have hcheck : Rules.check localRecord none .template = .ok [] := by rfl
  have hcheck' : Rules.check largerMargin (some "main") .template = .ok [] := by rfl
  obtain ⟨-, -, -, bounds, -, runs, antitone⟩ := summary_of_check hcheck "value"
  obtain ⟨leverage, leverage', hleverage, hleverage', hle⟩ :=
    antitone largerMargin _ hcheck' rfl (by decide) (by decide)
  refine ⟨hcheck, hcheck', ⟨leverage, leverage', hleverage, hleverage', hle,
    bounds leverage hleverage⟩, ?_⟩
  have held : ((Registry.source {} none 0).result.toOption.bind fun registry =>
      (registry.get (.str "local")).result.toOption).map Edition.record = some localRecord := by
    decide +kernel
  obtain ⟨edition, hget, hedition⟩ := Option.map_eq_some_iff.mp held
  obtain ⟨registry, hregistry, hget⟩ := Option.bind_eq_some_iff.mp hget
  have unlogged : (Invocation.logSettings
      ⟨none, "sqlite:///ledger.db", "INFO", none, .summary "local" true⟩).path? = none := rfl
  have opens : Ledger.Opens "sqlite:///ledger.db" {} {} :=
    toOption_eq_some_iff.mp (by decide +kernel)
  have summarizes : Invocation.Summarizes
      ⟨none, "sqlite:///ledger.db", "INFO", none, .summary "local" true⟩ {} "local" true
      localRecord :=
    { command := rfl
      registry := ⟨registry, edition, toOption_eq_some_iff.mp hregistry,
        toOption_eq_some_iff.mp hget, hedition⟩
      canLog := ⟨⟨.info, rfl⟩, by simp [unlogged]⟩
      apart := by simp [unlogged]
      ledger := fun _ => ⟨{}, by simp [Logs, unlogged, opens], by simp⟩ }
  exact runs _ _ _ _ _ _ rfl summarizes

end PerpRollout.CommandLine
