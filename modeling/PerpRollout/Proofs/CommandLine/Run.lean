import PerpRollout.Proofs.CommandLine.Perform

/-!
# Runs and the ledger

What a run keeps of its work is in the ledger alone: each run reads the registry anew. A run
that ends with 0 adds the row its command asks for, any other run adds none
(`Site.stands_run`), so after any runs the rows of the ledger are those that the runs recorded,
in order, and the next run tells them (`runAll_agrees_with_ledger`).
-/

namespace PerpRollout.CommandLine

open Ledger (Tables Keeps)

/-! ## Runs one after the other -/

/-- The row that a run adds to the ledger: the one its command asks for, if it ends with 0. -/
def recorded? (defaults : Defaults) (arguments : List String) (files : Files Content) :
    Option (String × String × String) :=
  match Invocation.parse defaults arguments, (run defaults arguments files).ending with
  | .ok i, .exit 0 _ => i.recording?
  | _, _ => none

/-- The files after runs with these arguments, one after the other. -/
def runAll (defaults : Defaults) : List (List String) → Files Content → Files Content
  | [], files => files
  | arguments :: session, files => runAll defaults session (run defaults arguments files).files

/-- The rows that runs add to the ledger, in the order of the runs. -/
def recordings (defaults : Defaults) :
    List (List String) → Files Content → List (String × String × String)
  | [], _ => []
  | arguments :: session, files =>
    (recorded? defaults arguments files).toList ++
      recordings defaults session (run defaults arguments files).files

/-! ## The log of a run -/

/-- What logging may do to the files: add lines to the log, if there is one. -/
def Logs (i : Invocation) (files files' : Files Content) : Prop :=
  files' = files ∨
    ∃ path ∈ i.logSettings.path?, ∃ lines, appendLog path lines files = .ok files'

/-- The level of the log is known, and there is a place for its lines. -/
structure Invocation.CanLog (i : Invocation) (files : Files Content) : Prop where
  level : ∃ level, Log.Level.parse i.logLevel = .ok level
  file : ∀ path ∈ i.logSettings.path?, ∃ made, appendLog path [] files = .ok made

variable {defaults : Defaults} {arguments : List String} {i : Invocation} {site : Site}
  {files files' : Files Content} {t : Tables} {path : Path} {lines : List Log.Line}

theorem grows_of_appendLog (h : appendLog path lines files = .ok files') :
    path.root.isEmpty = true ∧ Files.Grows files files' path := by
  unfold appendLog at h
  split at h
  · cases h
  split at h
  · cases h
  next made hmade =>
    split at h
    · cases h
    next names hnames =>
      obtain ⟨hroot, rfl⟩ := Files.eq_place_of_target hnames
      cases h
      exact ⟨hroot, Files.grows_of_write hmade _⟩

/-- Whether lines can be added to a log does not depend on the lines. -/
theorem exists_appendLog (h : appendLog path lines files = .ok files') (lines' : List Log.Line) :
    ∃ made, appendLog path lines' files = .ok made := by
  unfold appendLog at h ⊢
  split at h
  · cases h
  next hnull =>
    rw [if_neg hnull]
    split at h
    · cases h
    next made _ =>
      split at h
      · cases h
      next => exact ⟨_, rfl⟩

theorem Site.Stands.of_logs (stands : site.Stands t files) (serves : site.Serves i)
    (h : Logs i files files') : site.Stands t files' := by
  rcases h with rfl | ⟨path, hpath, lines, h⟩
  · exact stands
  · obtain ⟨hroot, grows⟩ := grows_of_appendLog h
    obtain ⟨apart, others⟩ := serves.log path hpath hroot
    refine ⟨stands.ledger.of_grows grows apart, ?_, stands.addresses⟩
    intro x hx
    exact grows.read (stands.registry x hx) (others x hx)

/-! ## One run -/

/-- A run that is asked for in the right way fails before it does anything, as it cannot log, or
it performs its command between writes to its log. -/
theorem run_cases (parsed : Invocation.parse defaults arguments = .ok i) (files : Files Content) :
    (¬i.CanLog files ∧ (∃ e, (run defaults arguments files).ending = .failed e) ∧
      (run defaults arguments files).files = files) ∨
    ∃ ready, Logs i files ready ∧
      (run defaults arguments files).ending = (conclude (perform i ready).1.result).1 ∧
      Logs i (perform i ready).2 (run defaults arguments files).files := by
  unfold run
  simp only [parsed]
  split
  next e he =>
    refine .inl ⟨fun can => ?_, ⟨e, rfl⟩, rfl⟩
    obtain ⟨level, hlevel⟩ := can.level
    rw [he] at hlevel
    cases hlevel
  next level hlevel =>
    cases hpath : i.logSettings.path? with
    | none =>
      exact .inr ⟨files, .inl rfl, rfl, .inl rfl⟩
    | some path =>
      simp only
      cases hready : appendLog path (Log.atLeast level [i.logSettings.configured]) files with
      | error e =>
        refine .inl ⟨fun can => ?_, ⟨e, rfl⟩, rfl⟩
        obtain ⟨made, hmade⟩ := can.file path hpath
        obtain ⟨made', hmade'⟩ :=
          exists_appendLog hmade (Log.atLeast level [i.logSettings.configured])
        rw [hready] at hmade'
        cases hmade'
      | ok ready =>
        refine .inr ⟨ready, .inr ⟨path, hpath, _, hready⟩, rfl, ?_⟩
        simp only
        generalize Log.atLeast level _ = lines
        cases hlast : appendLog path lines (perform i ready).2 with
        | error e => exact .inl rfl
        | ok last => exact .inr ⟨path, hpath, _, hlast⟩

/-- A run of a command that does not fail ends with 0, and prints what the command gives. -/
theorem exit_of_ensures (parsed : Invocation.parse defaults arguments = .ok i)
    (can : i.CanLog files) {pre : Files Content → Prop} {post : String → Prop}
    (hpre : ∀ ready, Logs i files ready → pre ready)
    (performs : (perform i).Ensures pre (fun output _ => post output) fun _ => False) :
    ∃ output, post output ∧ (run defaults arguments files).ending = .exit 0 output := by
  rcases run_cases parsed files with ⟨cannot, -, -⟩ | ⟨ready, logs, hending, -⟩
  · exact absurd can cannot
  · have performed := performs ready (hpre ready logs)
    cases hresult : (perform i ready).1.result with
    | error e =>
        rw [hresult] at performed
        exact performed.elim
    | ok output =>
        rw [hresult] at performed hending
        exact ⟨output, performed, hending⟩

/-- A run that ends with a failure prints nothing. -/
theorem conclude_error (e : Failure) :
    (conclude (.error e)).1 = .exit 1 "" ∨ (conclude (.error e)).1 = .exit 2 "" ∨
      ∃ e', (conclude (.error e)).1 = .failed e' := by
  cases e with
  | notFound _ _ => exact .inl rfl
  | invalid _ => exact .inr (.inl rfl)
  | fault _ => exact .inr (.inl rfl)
  | _ => exact .inr (.inr ⟨_, rfl⟩)

theorem recorded?_of_parse (parsed : Invocation.parse defaults arguments = .ok i) {output : String}
    (h : (run defaults arguments files).ending = .exit 0 output) :
    recorded? defaults arguments files = i.recording? := by
  simp only [recorded?, parsed, h]

theorem recorded?_eq_none (h : ∀ output, (run defaults arguments files).ending ≠ .exit 0 output) :
    recorded? defaults arguments files = none := by
  unfold recorded?
  split
  next hending => exact absurd hending (h _)
  next => rfl

/-- A run adds to the ledger what it records, and leaves the rest of the site as it is. -/
theorem Site.stands_run (serves : ∀ i, Invocation.parse defaults arguments = .ok i → site.Serves i)
    (stands : site.Stands t files) :
    ∃ t', Adds t (recorded? defaults arguments files) t' ∧
      site.Stands t' (run defaults arguments files).files := by
  cases parsed : Invocation.parse defaults arguments with
  | error stop =>
      have hrun : (run defaults arguments files).files = files := by
        unfold run
        rw [parsed]
        cases stop <;> rfl
      have hnone : recorded? defaults arguments files = none := by
        simp only [recorded?, parsed]
      rw [hrun, hnone]
      exact ⟨t, .nothing, stands⟩
  | ok i =>
      have serves := serves i parsed
      rcases run_cases parsed files with ⟨-, ⟨e, hending⟩, hfiles⟩ | ⟨ready, hready, hending, hlast⟩
      · rw [hfiles, recorded?_eq_none (by simp [hending])]
        exact ⟨t, .nothing, stands⟩
      · have performed := ensures_perform serves parsed ready (stands.of_logs serves hready)
        cases hresult : (perform i ready).1.result with
        | error e =>
            rw [hresult] at performed hending
            have hnone : recorded? defaults arguments files = none := by
              apply recorded?_eq_none
              intro output hexit
              rcases conclude_error e with h | h | ⟨e', h⟩
              all_goals
                rw [hending, h] at hexit
                cases hexit
            rw [hnone]
            exact ⟨t, .nothing, Stands.of_logs performed serves hlast⟩
        | ok output =>
            rw [hresult] at performed hending
            obtain ⟨t', adds, stands'⟩ := performed
            rw [recorded?_of_parse parsed hending]
            exact ⟨t', adds, stands'.of_logs serves hlast⟩

/-- A run that ends with another code than 0 ends with 1 or 2; it prints nothing and records
nothing. -/
theorem output_of_run {code : Nat} {output : String}
    (h : (run defaults arguments files).ending = .exit code output) (hcode : code ≠ 0) :
    (code = 1 ∨ code = 2) ∧ output = "" ∧ recorded? defaults arguments files = none := by
  have hnone : recorded? defaults arguments files = none := by
    apply recorded?_eq_none
    intro output' h'
    rw [h] at h'
    cases h'
    exact hcode rfl
  cases parsed : Invocation.parse defaults arguments with
  | error stop =>
      unfold run at h
      rw [parsed] at h
      cases stop <;> cases h
  | ok i =>
      rcases run_cases parsed files with ⟨-, ⟨e, hending⟩, -⟩ | ⟨ready, -, hending, -⟩
      · rw [hending] at h
        cases h
      · rw [hending] at h
        cases hresult : (perform i ready).1.result with
        | ok output' =>
            rw [hresult] at h
            cases h
            exact absurd rfl hcode
        | error e =>
            rw [hresult] at h
            rcases conclude_error e with he | he | ⟨e', he⟩
            · rw [he] at h
              cases h
              exact ⟨.inl rfl, rfl, hnone⟩
            · rw [he] at h
              cases h
              exact ⟨.inr rfl, rfl, hnone⟩
            · rw [he] at h
              cases h

/-- A run that shows an environment of the registry prints its record with the last address of
each module. -/
theorem Site.run_show (parsed : Invocation.parse defaults arguments = .ok i)
    (serves : site.Serves i) (stands : site.Stands t files) (can : i.CanLog files)
    {environment : String} (hcommand : i.command = .show environment true) {r : Registry}
    (hr : (Registry.source files i.configFile 0).result = .ok r)
    (registered : environment ∈ r.names) :
    ∃ edition text, (r.get (.str environment)).result = .ok edition ∧
      (Ledger.fill edition.record fun m =>
        Ledger.lastOf m (t.history environment)).toJson.render .indented = (text, true) ∧
      (run defaults arguments files).ending = .exit 0 (text ++ "\n") := by
  have hpre (ready : Files Content) (logs : Logs i files ready) :
      (Registry.source ready i.configFile 0).result = .ok r ∧ site.Stands t ready := by
    have stands' := stands.of_logs serves logs
    rw [stands.source_eq stands' serves]
    exact ⟨hr, stands'⟩
  obtain ⟨_, ⟨edition, text, hedition, htext, rfl⟩, hending⟩ :=
    exit_of_ensures parsed can hpre (ensures_show serves hcommand registered)
  exact ⟨edition, text, hedition, htext, hending⟩

/-- There are arguments that show an environment, whatever its name. -/
theorem parse_show (defaults : Defaults) (environment : String) :
    Invocation.parse defaults ["show", "--with-ledger", "--", environment] =
      .ok ⟨defaults.configFile, defaults.databaseUrl, defaults.logLevel, defaults.logFile,
        .show environment true⟩ := by
  rfl

/-! ## All runs -/

theorem Site.stands_runAll {session : List (List String)}
    (serves : ∀ arguments ∈ session, ∀ i, Invocation.parse defaults arguments = .ok i →
      site.Serves i) (stands : site.Stands t files) :
    ∃ t', t'.addresses.map AddressRow.triple =
        t.addresses.map AddressRow.triple ++ recordings defaults session files ∧
      site.Stands t' (runAll defaults session files) := by
  induction session generalizing files t with
  | nil => exact ⟨t, (List.append_nil _).symm, stands⟩
  | cons arguments session ih =>
      obtain ⟨next, adds, stands⟩ := stands_run (serves arguments List.mem_cons_self) stands
      obtain ⟨t', htriples, stands⟩ :=
        ih (fun arguments h => serves arguments (List.mem_cons_of_mem _ h)) stands
      refine ⟨t', ?_, stands⟩
      rw [htriples, adds.triples, recordings, List.append_assoc]

/-- How a run agrees with the ledger of the URL, which has these tables before it, and with
the registry that there was at the start. -/
structure Agrees (defaults : Defaults) (url : String) (t : Tables) (start files : Files Content)
    (arguments : List String) : Prop where
  /-- A run that ends with another code than 0 prints nothing and adds no row. -/
  refused : ∀ code output, (run defaults arguments files).ending = .exit code output → code ≠ 0 →
    (code = 1 ∨ code = 2) ∧ output = "" ∧
      Ledger.Opens url (run defaults arguments files).files t
  /-- No other command than a resolution that is to be recorded adds a row. -/
  unasked : (∀ i, Invocation.parse defaults arguments = .ok i → i.recording? = none) →
    Ledger.Opens url (run defaults arguments files).files t
  /-- An environment of the registry is shown as its record, with the last address that was
  recorded for each module. -/
  shown : ∀ i environment r, Invocation.parse defaults arguments = .ok i →
    i.command = .show environment true → i.CanLog files →
    (Registry.source start i.configFile 0).result = .ok r → environment ∈ r.names →
    ∃ edition text, (r.get (.str environment)).result = .ok edition ∧
      (Ledger.fill edition.record fun m =>
        Ledger.lastOf m (t.history environment)).toJson.render .indented = (text, true) ∧
      (run defaults arguments files).ending = .exit 0 (text ++ "\n")

theorem Site.agrees {start : Files Content} {t₀ : Tables} {url : String}
    (location : (Ledger.Url.ofText url).location = .file site.ledger)
    (began : site.Stands t₀ start) (stands : site.Stands t files)
    (serves : ∀ i, Invocation.parse defaults arguments = .ok i → site.Serves i) :
    Agrees defaults url t start files arguments := by
  have kept (h : recorded? defaults arguments files = none) :
      Ledger.Opens url (run defaults arguments files).files t := by
    obtain ⟨t', adds, stands'⟩ := stands_run serves stands
    rw [h] at adds
    cases adds
    exact stands'.ledger.opens location
  constructor
  case refused =>
    intro code output hending hcode
    obtain ⟨hcodes, houtput, hnone⟩ := output_of_run hending hcode
    exact ⟨hcodes, houtput, kept hnone⟩
  case unasked =>
    intro hnone
    apply kept
    unfold recorded?
    split
    next i _ parsed _ => exact hnone i parsed
    next => rfl
  case shown =>
    intro i environment r parsed hcommand can hr registered
    rw [← began.source_eq stands (serves i parsed)] at hr
    exact run_show parsed (serves i parsed) stands can hcommand hr registered

/-- Runs on an empty ledger leave in it the rows that they record, in the order of the runs,
and a run that comes next agrees with what is there. Each run of a session comes next after
those before it. -/
theorem runAll_agrees_with_ledger {url : String}
    (location : (Ledger.Url.ofText url).location = .file site.ledger) {t₀ : Tables}
    (working : Ledger.Opens url files t₀) (empty : t₀.addresses = [])
    (registry : ∀ x ∈ site.registry?, files.read x.1 = .ok x.2) {session : List (List String)}
    (serves : ∀ arguments ∈ session, ∀ i, Invocation.parse defaults arguments = .ok i →
      site.Serves i) :
    ∃ t, Ledger.Opens url (runAll defaults session files) t ∧
      t.addresses.map AddressRow.triple = recordings defaults session files ∧
      ∀ arguments, (∀ i, Invocation.parse defaults arguments = .ok i → site.Serves i) →
        Agrees defaults url t files (runAll defaults session files) arguments := by
  have began : site.Stands t₀ files := by
    refine ⟨working.keeps location, registry, ?_⟩
    rw [empty]
    simp
  obtain ⟨t, htriples, stands⟩ := Site.stands_runAll serves began
  rw [empty, List.map_nil, List.nil_append] at htriples
  exact ⟨t, stands.ledger.opens location, htriples,
    fun arguments serves => Site.agrees location began stands serves⟩

/-- A session on the bundled registry and a new ledger: the row of a resolution is there
afterwards, and the record is shown. -/
theorem runAll_agrees_with_ledger_of_local :
    let defaults : Defaults := { databaseUrl := "sqlite:///ledger.db" }
    let files := runAll defaults
      [["resolve", "local", "oracle_hub", "juno1hub", "--record"], ["list"]] {}
    ∃ t, Ledger.Opens "sqlite:///ledger.db" files t ∧
      t.addresses.map AddressRow.triple = [("local", "oracle_hub", "juno1hub")] ∧
      ∃ text, (run defaults ["show", "--with-ledger", "--", "local"] files).ending =
        .exit 0 (text ++ "\n") := by
  intro defaults files
  have location : (Ledger.Url.ofText "sqlite:///ledger.db").location =
      .file (.ofText "ledger.db") := by decide +kernel
  have working : Ledger.Opens "sqlite:///ledger.db" {} {} :=
    toOption_eq_some_iff.mp (by decide +kernel)
  have bundled : ∀ x ∈ (none : Option (Path × Content)),
      ({} : Files Content).read x.1 = .ok x.2 := by simp
  have unlogged (command : Command) : (Invocation.logSettings
      ⟨none, "sqlite:///ledger.db", "INFO", none, command⟩).path? = none := rfl
  have serves {arguments : List String} {command : Command}
      (h : Invocation.parse defaults arguments =
        .ok ⟨none, "sqlite:///ledger.db", "INFO", none, command⟩) :
      ∀ i, Invocation.parse defaults arguments = .ok i →
        Site.Serves ⟨.ofText "ledger.db", none, by simp⟩ i := by
    intro i parsed
    rw [h] at parsed
    cases parsed
    exact ⟨location, rfl, by simp [unlogged]⟩
  have resolve : Invocation.parse defaults
      ["resolve", "local", "oracle_hub", "juno1hub", "--record"] =
        .ok ⟨none, "sqlite:///ledger.db", "INFO", none,
          .resolve "local" "oracle_hub" "juno1hub" true⟩ := rfl
  have list : Invocation.parse defaults ["list"] =
      .ok ⟨none, "sqlite:///ledger.db", "INFO", none, .list⟩ := rfl
  obtain ⟨t, hopen, hrows, hnext⟩ :=
    runAll_agrees_with_ledger location working rfl bundled
      (List.forall_mem_cons.mpr ⟨serves resolve, List.forall_mem_singleton.mpr (serves list)⟩)
  refine ⟨t, hopen, ?_, ?_⟩
  · rw [hrows]
    decide +kernel
  · have names : (Registry.source {} none 0).result.toOption.map Registry.names =
        some ["juno_testnet", "local", "osmo_testnet"] := by decide +kernel
    obtain ⟨r, hr, hnames⟩ := Option.map_eq_some_iff.mp names
    have parsed := parse_show defaults "local"
    have can : Invocation.CanLog ⟨none, "sqlite:///ledger.db", "INFO", none, .show "local" true⟩
      files := ⟨⟨.info, rfl⟩, by simp [unlogged]⟩
    obtain ⟨_, text, -, -, hending⟩ := (hnext _ (serves parsed)).shown _ _ r parsed rfl can
      (toOption_eq_some_iff.mp hr) (by rw [hnames]; decide)
    exact ⟨text, hending⟩

end PerpRollout.CommandLine
