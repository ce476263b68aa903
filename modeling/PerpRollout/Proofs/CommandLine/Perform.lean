import PerpRollout.Proofs.CommandLine.Act
import PerpRollout.Proofs.CommandLine.Arguments
import PerpRollout.Proofs.Ledger.Location
import PerpRollout.Proofs.Ledger.Replay
import PerpRollout.Proofs.Registry.Source

/-!
# What a command does to the ledger

Runs that use one ledger and one registry work on a site (`Site`). As long as the ledger and
the file of the registry stand (`Site.Stands`), a command that gives a result adds the row it
asks for to the ledger, and no other (`Site.ensures_perform`); one that fails adds none, since
nothing that can fail comes after a row was kept: the record that is printed then can be
printed. A record is shown with the last address of each module (`Site.ensures_loadRecord`).
-/

namespace PerpRollout

/-- The environment of a row, the name of its module, and its address. -/
def AddressRow.triple (row : AddressRow) : String × String × String :=
  (row.environment, row.module.name, row.address)

namespace CommandLine

open Ledger (Tables Keeps)

/-- What runs work on: the file of a ledger, and the file of a registry with what it holds
unless the registry is the bundled one. -/
structure Site where
  ledger : Path
  registry? : Option (Path × Content)
  apart : ∀ x ∈ registry?, x.1.place ≠ ledger.place

/-- The row that a command asks to add to the ledger. -/
def Invocation.recording? (i : Invocation) : Option (String × String × String) :=
  match i.command with
  | .resolve environment module address true => some (environment, module, address)
  | _ => none

/-- Adding at most one row to the tables. -/
inductive Adds (t : Tables) : Option (String × String × String) → Tables → Prop
  | nothing : Adds t none t
  | row (environment : String) (m : Module) (address : String) :
      Adds t (some (environment, m.name, address)) (t.record environment m address).2

theorem Adds.triples {t t' : Tables} {new : Option (String × String × String)}
    (adds : Adds t new t') :
    t'.addresses.map AddressRow.triple = t.addresses.map AddressRow.triple ++ new.toList := by
  cases adds with
  | nothing => simp
  | row environment m address => simp [Tables.record, AddressRow.triple]

/-! ## Reading and printing -/

/-- Reading the registry changes no files. -/
theorem ensures_source (config : Option String) (holds : Files Content → Prop) :
    Act.Ensures (fun files => (Registry.source files config 0, files)) holds
      (fun r files => (Registry.source files config 0).result = .ok r ∧ holds files)
      fun files => (∃ e, (Registry.source files config 0).result = .error e) ∧ holds files := by
  intro files h
  simp only
  cases hr : (Registry.source files config 0).result with
  | error e => exact ⟨⟨e, rfl⟩, h⟩
  | ok r => exact ⟨rfl, h⟩

/-- Where it is known what registry is read, what follows starts from it, and its records can be
written. -/
theorem ensures_source_bind {config : Option String} {r : Registry} {β : Type}
    {f : Registry → Act β} {pre fails : Files Content → Prop} {post : β → Files Content → Prop}
    (hf : (∀ e ∈ r.entries, e.edition.record.IsWritable) → (f r).Ensures pre post fails) :
    Act.Ensures ((fun files => (Registry.source files config 0, files) : Act Registry) >>= f)
      (fun files => (Registry.source files config 0).result = .ok r ∧ pre files) post fails := by
  refine Act.Ensures.bind ((ensures_source config _).mono (fun _ _ h => h) ?_) fun r' => ?_
  · rintro files ⟨⟨e, he⟩, hr, -⟩
    rw [hr] at he
    cases he
  have known : ∀ files, (Registry.source files config 0).result = .ok r' ∧
      (Registry.source files config 0).result = .ok r ∧ pre files →
        (r' = r ∧ ∀ e ∈ r.entries, e.edition.record.IsWritable) ∧ pre files := by
    rintro files ⟨hr', hr, h⟩
    rw [hr] at hr'
    cases hr'
    exact ⟨⟨rfl, Registry.isWritable_of_source hr⟩, h⟩
  refine Act.Ensures.of_known known fun known => ?_
  obtain ⟨rfl, writable⟩ := known
  exact hf writable

/-- Printing changes no files, and fails only for an integer that is too long. -/
theorem ensures_printed (v : Json) (holds : Files Content → Prop) :
    (printed v).Ensures holds
      (fun output files => (∃ text, v.render .indented = (text, true) ∧ output = text ++ "\n") ∧
        holds files) fun files => v.isWritable = false ∧ holds files := by
  intro files h
  unfold printed
  rcases hrender : v.render .indented with ⟨text, done⟩
  cases done with
  | true => exact ⟨⟨text, rfl, rfl⟩, h⟩
  | false =>
      refine ⟨?_, h⟩
      by_contra hwritable
      rw [Json.render_of_isWritable .indented (by simpa using hwritable)] at hrender
      cases hrender

theorem preserves_printed (v : Json) (holds : Files Content → Prop) :
    (printed v).Preserves holds :=
  (ensures_printed v holds).mono (fun _ _ h => h.2) fun _ h => h.2

/-- What the ledger tells of an environment are addresses, if those of all rows are. -/
theorem address_of_mem_history {t : Tables} (addresses : ∀ row ∈ t.addresses, IsAddress row.address)
    (environment : String) : ∀ step ∈ t.history environment, IsAddress step.2 := by
  intro step hstep
  obtain ⟨row, hrow, rfl⟩ := List.mem_map.mp hstep
  exact addresses row (List.mem_of_mem_filter hrow)

/-- Where the ledger can be opened, the record of an environment gets from it the last address
of each module. -/
theorem ensures_loadRecord_of_openLedger {i : Invocation} {r : Registry} {environment : String}
    {edition : Edition} (hget : (r.get (.str environment)).result = .ok edition)
    {withLedger : Bool} {t : Tables} {pre post fails : Files Content → Prop}
    (opens : withLedger = true → (openLedger i.databaseUrl).Ensures pre
      (fun l files => l = ⟨some t⟩ ∧ post files) fails)
    (skips : withLedger = false → ∀ files, pre files → post files)
    (addresses : withLedger = true → ∀ row ∈ t.addresses, IsAddress row.address) :
    (loadRecord i r environment withLedger).Ensures pre
      (fun record files => record = (if withLedger then
          Ledger.fill edition.record fun m => Ledger.lastOf m (t.history environment)
        else edition.record) ∧ post files) fails := by
  unfold loadRecord
  refine Act.Ensures.lift_bind_of_ok hget ?_
  cases withLedger with
  | false =>
      refine (Act.ensures_pure _ _).mono ?_ fun _ h => h
      rintro record files ⟨rfl, h⟩
      exact ⟨rfl, skips rfl files h⟩
  | true =>
      have happly : (Ledger.apply ⟨some t⟩ edition.record environment).result =
          .ok (edition.record.setAll (t.history environment)) :=
        (Ledger.result_apply_eq_ok_iff rfl
          (address_of_mem_history (addresses rfl) environment)).mpr rfl
      refine (opens rfl).bind fun l => ?_
      refine Act.Ensures.of_known (fun _ h => h) ?_
      rintro rfl
      refine (Act.ensures_lift _ _).mono ?_ ?_
      · rintro record files ⟨hrecord, h⟩
        rw [happly] at hrecord
        cases hrecord
        exact ⟨Ledger.setAll_eq_fill .., h⟩
      · rintro files ⟨⟨e, he⟩, -⟩
        rw [happly] at he
        cases he

/-! ## What stands between runs -/

namespace Site

variable {site : Site} {i : Invocation} {files files' : Files Content} {t t' : Tables}
  {r r' : Registry} {environment : String} {fails : Files Content → Prop}

/-- The run uses the ledger and the registry of the site, and no log at their places. -/
structure Serves (site : Site) (i : Invocation) : Prop where
  ledger : (Ledger.Url.ofText i.databaseUrl).location = .file site.ledger
  registry : Registry.sourceFile? i.configFile = site.registry?.map Prod.fst
  log : ∀ path ∈ i.logSettings.path?, path.root.isEmpty = true →
    Path.Apart path site.ledger ∧ ∀ x ∈ site.registry?, x.1.place ≠ path.place

/-- The ledger keeps the tables, with addresses in all rows, and the file of the registry is
as it was. -/
structure Stands (site : Site) (t : Tables) (files : Files Content) : Prop where
  ledger : Keeps site.ledger files t
  registry : ∀ x ∈ site.registry?, files.read x.1 = .ok x.2
  addresses : ∀ row ∈ t.addresses, IsAddress row.address

/-- Writing to the ledger leaves the registry alone. -/
theorem Stands.of_grows (stands : site.Stands t files)
    (grows : Files.Grows files files' site.ledger) (keeps : Keeps site.ledger files' t')
    (addresses : ∀ row ∈ t'.addresses, IsAddress row.address) : site.Stands t' files' := by
  refine ⟨keeps, ?_, addresses⟩
  intro x hx
  exact grows.read (stands.registry x hx) (site.apart x hx)

/-- Any two runs start from the same registry. -/
theorem Stands.source_eq (stands : site.Stands t files) (stands' : site.Stands t' files')
    (serves : site.Serves i) :
    Registry.source files' i.configFile 0 = Registry.source files i.configFile 0 := by
  refine Registry.source_congr rfl ?_ 0
  intro path hpath
  rw [serves.registry, Option.mem_def, Option.map_eq_some_iff] at hpath
  obtain ⟨x, hx, rfl⟩ := hpath
  rw [stands.registry x hx, stands'.registry x hx]

/-! ## The steps of a command -/

theorem ensures_openLedger (serves : site.Serves i) :
    (openLedger i.databaseUrl).Ensures (site.Stands t)
      (fun l files => l = ⟨some t⟩ ∧ files.target site.ledger = .ok site.ledger.place ∧
        site.Stands t files) fails := by
  intro files stands
  obtain ⟨lines, files', hopen, grows, htarget, keeps⟩ := stands.ledger.openAt serves.ledger
  rw [openLedger, hopen]
  exact ⟨rfl, htarget, stands.of_grows grows keeps stands.addresses⟩

theorem ensures_keepLedger (serves : site.Serves i)
    (addresses : ∀ row ∈ t'.addresses, IsAddress row.address) :
    (keepLedger i.databaseUrl ⟨some t'⟩).Ensures
      (fun files => files.target site.ledger = .ok site.ledger.place ∧ site.Stands t files)
      (fun _ => site.Stands t') fails := by
  rintro files ⟨htarget, stands⟩
  obtain ⟨grows, keeps⟩ := stands.ledger.keep serves.ledger htarget t'
  exact stands.of_grows grows keeps addresses

/-- A record is loaded for every environment of the registry. From the ledger it gets the last
address of each module. -/
theorem ensures_loadRecord (serves : site.Serves i) (r : Registry) (environment : String)
    (withLedger : Bool) :
    (loadRecord i r environment withLedger).Ensures (site.Stands t)
      (fun record files => (∃ edition, (r.get (.str environment)).result = .ok edition ∧
        record = if withLedger then
          Ledger.fill edition.record fun m => Ledger.lastOf m (t.history environment)
        else edition.record) ∧ site.Stands t files)
      fun files => environment ∉ r.names ∧ site.Stands t files := by
  refine Act.Ensures.of_known (fun _ stands => And.intro stands.addresses stands)
    fun addresses => ?_
  cases hget : (r.get (.str environment)).result with
  | ok edition =>
      refine (ensures_loadRecord_of_openLedger hget (fun _ => (ensures_openLedger serves).mono
        (fun _ _ h => ⟨h.1, h.2.2⟩) fun _ h => h) (fun _ _ stands => stands)
        fun _ => addresses).mono ?_ fun _ h => h
      rintro record files ⟨hrecord, stands⟩
      exact ⟨⟨edition, rfl, hrecord⟩, stands⟩
  | error e =>
      unfold loadRecord
      refine Act.Ensures.lift_bind (fun edition hedition => ?_) fun _ _ files stands => ?_
      · rw [hget] at hedition
        cases hedition
      · refine ⟨fun hmem => ?_, stands⟩
        obtain ⟨edition, hedition⟩ := Registry.exists_result_get hmem
        rw [hedition] at hget
        cases hget

theorem preserves_loadRecord (serves : site.Serves i) (r : Registry) (environment : String)
    (withLedger : Bool) :
    (loadRecord i r environment withLedger).Preserves (site.Stands t) :=
  (ensures_loadRecord serves r environment withLedger).mono (fun _ _ h => h.2)
    fun _ h => h.2

/-! ## Commands -/

/-- A resolution that is recorded adds its row. Once the row is kept nothing fails: the record
that is printed then can be printed. -/
theorem ensures_resolve (serves : site.Serves i)
    (writable : ∀ e ∈ r.entries, e.edition.record.IsWritable) {module address : String}
    (named : ∀ m, Module.parse (.str module) = .ok m → module = m.name) :
    Act.Ensures (do
      let (resolved, _) ← r.resolve (.str environment) (.str module) (.str address)
      let l ← openLedger i.databaseUrl
      let store : Store := ⟨some r.names⟩
      let (_, l) ← store.record environment (.str module) (.str address) l
      keepLedger i.databaseUrl l
      printed resolved.toJson) (site.Stands t)
      (fun _ files => ∃ t', Adds t (some (environment, module, address)) t' ∧ site.Stands t' files)
      (site.Stands t) := by
  refine Act.Ensures.lift_bind (fun ⟨new, next⟩ hresolve => ?_) (fun _ _ _ stands => stands)
  obtain ⟨_, e, m, _, hname, he, hm, ha, haddress, rfl, -⟩ :=
    Registry.result_resolve_eq_ok_iff.mp hresolve
  cases hname
  cases ha
  refine (ensures_openLedger serves).bind fun l => ?_
  refine Act.Ensures.of_known (fun _ h => And.intro (And.intro h.1 h.2.2.addresses) h.2)
    fun known => ?_
  obtain ⟨rfl, addresses⟩ := known
  refine Act.Ensures.lift_bind (fun ⟨id, l⟩ hrecord => ?_) (fun _ _ _ h => h.2)
  obtain ⟨m', _, _, -, hm', ha, -, ht, -, rfl⟩ := Store.result_record_eq_ok_iff.mp hrecord
  cases ha
  cases ht
  cases named m' hm'
  -- What is left is to keep the row and to print, and neither can fail.
  have hnew : (e.edition.record.setAddress m address).toJson.isWritable = true := by
    have he := writable e (Registry.mem_of_find? he)
    exact Record.isWritable_toJson (Record.isWritable_setAddress he m address)
  have addresses' :
      ∀ row ∈ (t.record environment m' address).2.addresses, IsAddress row.address := by
    intro row hrow
    rcases List.mem_append.mp hrow with hrow | hrow
    · exact addresses row hrow
    · rw [List.mem_singleton.mp hrow]
      exact haddress
  refine (ensures_keepLedger serves addresses').bind fun _ => ?_
  refine (ensures_printed _ _).mono ?_ ?_
  · rintro _ files ⟨-, stands⟩
    exact ⟨_, .row environment m' address, stands⟩
  · rintro files ⟨hno, -⟩
    rw [hnew] at hno
    cases hno

/-- A command that gives a result adds the row it asks for; one that fails adds none. -/
theorem ensures_perform (serves : site.Serves i) {defaults : Defaults} {arguments : List String}
    (parsed : Invocation.parse defaults arguments = .ok i) :
    (perform i).Ensures (site.Stands t)
      (fun _ files => ∃ t', Adds t i.recording? t' ∧ site.Stands t' files) (site.Stands t) := by
  have unchanged {x : Act String} (hx : x.Preserves (site.Stands t)) :
      x.Ensures (site.Stands t) (fun _ files => ∃ t', Adds t none t' ∧ site.Stands t' files)
        (site.Stands t) :=
    hx.mono (fun _ _ h => ⟨t, .nothing, h⟩) fun _ h => h
  unfold perform Invocation.recording?
  refine Act.Ensures.bind ((ensures_source i.configFile _).mono (fun _ _ h => h)
    fun _ h => h.2) fun r => ?_
  refine Act.Ensures.of_known (fun _ h => And.intro (Registry.isWritable_of_source h.1) h.2)
    fun writable => ?_
  have loaded (environment : String) (withLedger : Bool) {f : Record → Act String}
      (hf : ∀ record, (f record).Preserves (site.Stands t)) :=
    unchanged ((preserves_loadRecord serves r environment withLedger).bind hf)
  cases hcommand : i.command with
  | list => exact unchanged (preserves_printed _ _)
  | resolve environment module address record =>
      cases record with
      | true =>
          exact ensures_resolve serves writable fun m => Invocation.module_of_parse parsed hcommand
      | false =>
          exact unchanged ((Act.preserves_lift _ _).bind fun _ => preserves_printed _ _)
  | «show» environment withLedger =>
      exact loaded environment withLedger fun record => preserves_printed _ _
  | validate environment step deployable withLedger =>
      refine loaded environment withLedger fun record => ?_
      refine (Act.preserves_lift _ _).bind fun _ => ?_
      exact (Act.preserves_lift _ _).bind fun _ => preserves_printed _ _
  | plan environment withLedger =>
      exact loaded environment withLedger fun record => preserves_printed _ _
  | summary environment withLedger =>
      refine loaded environment withLedger fun record => ?_
      refine (Act.preserves_lift _ _).bind fun _ => ?_
      exact (Act.preserves_lift _ _).bind fun _ => preserves_printed _ _

/-- For every environment of the registry its record is shown, with the last address of each
module in place. -/
theorem ensures_show (serves : site.Serves i) (hcommand : i.command = .show environment true)
    (registered : environment ∈ r.names) :
    (perform i).Ensures
      (fun files => (Registry.source files i.configFile 0).result = .ok r ∧ site.Stands t files)
      (fun output _ => ∃ edition text, (r.get (.str environment)).result = .ok edition ∧
        (Ledger.fill edition.record fun m =>
          Ledger.lastOf m (t.history environment)).toJson.render .indented = (text, true) ∧
        output = text ++ "\n") fun _ => False := by
  unfold perform
  refine ensures_source_bind fun writable => ?_
  simp only [hcommand]
  refine Act.Ensures.bind ((ensures_loadRecord serves r environment true).mono
    (fun _ _ h => h) fun _ h => h.1 registered) fun record => ?_
  refine Act.Ensures.of_known (fun _ h => h) fun known => ?_
  obtain ⟨edition, hedition, rfl⟩ := known
  refine (ensures_printed _ _).mono ?_ ?_
  · rintro output files ⟨⟨text, htext, rfl⟩, -⟩
    exact ⟨edition, text, hedition, htext, rfl⟩
  · rintro files ⟨hno, -⟩
    obtain ⟨e, he, rfl⟩ := Registry.result_get_eq_ok_iff.mp hedition
    have hwritable := Record.isWritable_setAll (writable e (Registry.mem_of_find? he))
      (t.history environment)
    rw [Ledger.setAll_eq_fill] at hwritable
    rw [if_pos rfl, Record.isWritable_toJson hwritable] at hno
    cases hno

end Site

end CommandLine

end PerpRollout
