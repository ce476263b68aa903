import Mathlib.Data.List.Sort
import PerpRollout.Proofs.Registry.File

/-!
# Calls in another order

Two runs on empty registries may register the same records and resolve, for each
environment and module, the same addresses in the same order, and interleave these calls
in different ways. They end with registries that say and write the same, but for how a
history is interleaved across modules (`run_interleaving`).

What is there of an environment is settled by the accepted calls about it: its history is
what they resolve (`Kept.history_eq`), and its record the one they register with that
history resolved on it (`Kept.record_eq`), of which only the order within each slot counts
(`Record.setAll_congr`). Entries stand by their names, so no other trace is left of the
order in which environments were registered (`map_entries`).
-/

namespace PerpRollout.Registry

/-- The addresses that calls resolve for a module of an environment, in order. -/
def resolved (name : String) (m : Module) (done : List Call) : List String :=
  ((done.filterMap (Call.resolution? name)).filter (·.1 = m)).map Prod.snd

variable {done done' : List Call} {r r' : Registry} {name : String} {e e' : Entry}

/-! ## What accepted calls settle -/

theorem Call.registration?_eq_some_iff {call : Call} {c : Record} :
    call.registration? = some (name, c) ↔
      ∃ offer, call = .register (.str name) offer ∧ offer.record? = some c := by
  cases call with
  | register v offer => cases v <;> simp [registration?, and_comm]
  | resolve v module address => simp [registration?]

theorem filterMap_resolution?_eq_nil (h : ∀ call ∈ done, call.environment ≠ .str name) :
    done.filterMap (Call.resolution? name) = [] :=
  List.filterMap_eq_nil_iff.mpr fun call hcall => Call.resolution?_of_ne (h call hcall)

theorem Kept.history_eq (kept : Kept done r) (h : r.find? name = some e) :
    e.history = done.filterMap (Call.resolution? name) := by
  obtain ⟨before, offer, since, c, hdone, hbefore, -, -, hhistory, -, -⟩ := kept.told name e h
  rw [name_of_find? h] at hdone hbefore hhistory
  have hnone := filterMap_resolution?_eq_nil hbefore
  have hregister : (Call.register (.str name) offer).resolution? name = none := rfl
  rw [hhistory, hdone, List.filterMap_append, hnone, List.nil_append,
    List.filterMap_cons_none hregister]

/-- An environment is registered once, so its record goes back to any registration of it. -/
theorem Kept.record_eq (kept : Kept done r) (h : r.find? name = some e) {c : Record}
    (hc : (name, c) ∈ done.filterMap Call.registration?) :
    e.edition.record = c.setAll e.history := by
  obtain ⟨before, offer, since, c', hdone, hbefore, hsince, hc', -, -, hrecord⟩ :=
    kept.told name e h
  rw [name_of_find? h] at hdone hbefore hsince
  obtain ⟨call, hcall, hregistration⟩ := List.mem_filterMap.mp hc
  obtain ⟨offer', rfl, hoffer'⟩ := Call.registration?_eq_some_iff.mp hregistration
  rw [hdone] at hcall
  rcases List.mem_append.mp hcall with hcall | hcall
  · exact absurd rfl (hbefore _ hcall)
  · rcases List.mem_cons.mp hcall with hcall | hcall
    · cases hcall
      cases hc'.symm.trans hoffer'
      exact hrecord
    · cases hsince _ hcall rfl

theorem filter_eq_resolved (name : String) (m : Module) (done : List Call) :
    (done.filterMap (Call.resolution? name)).filter (·.1 = m) =
      (resolved name m done).map fun a => (m, a) := by
  rw [resolved, List.map_map]
  refine ((List.map_congr_left fun step hstep => ?_).trans (List.map_id _)).symm
  obtain ⟨n, a⟩ := step
  have hn : n = m := of_decide_eq_true (List.mem_filter.mp hstep).2
  exact Prod.ext hn.symm rfl

/-! ## Entries by their names -/

theorem find?_of_mem (sorted : r.entries.Pairwise (·.name < ·.name)) (he : e ∈ r.entries) :
    r.find? e.name = some e := by
  obtain ⟨before, after, hentries⟩ := List.append_of_mem he
  rw [hentries, List.pairwise_append] at sorted
  rw [find?, hentries, List.find?_eq_some_iff_append]
  refine ⟨decide_eq_true rfl, before, after, rfl, fun x hx => ?_⟩
  have hlt : x.name < e.name := sorted.2.2 x hx e List.mem_cons_self
  simpa using String.ne_of_lt hlt

/-- Entries that stand by their names are read off from the names. -/
theorem map_entries {α : Type} (sorted : r.entries.Pairwise (·.name < ·.name))
    (f : Entry → α) : r.entries.map f = r.names.filterMap fun n => (r.find? n).map f := by
  rw [names, List.filterMap_map, ← List.filterMap_eq_map]
  refine List.filterMap_congr fun e he => ?_
  simp only [Function.comp_apply, find?_of_mem sorted he, Option.map_some]

/-- What a registry tells of a value's environment goes by what it holds of each name. -/
theorem result_map_entry_congr {α : Type} {f : Entry → α} (hnames : r.names = r'.names)
    (h : ∀ name, (r.find? name).map f = (r'.find? name).map f) (v : Json) :
    (r.entry v).result.map f = (r'.entry v).result.map f := by
  have hjson : (r.findJson? v).map f = (r'.findJson? v).map f := by
    cases v with
    | str name => exact h name
    | _ => rfl
  unfold entry
  rw [hnames]
  cases hv : r.findJson? v with
  | none =>
      rw [hv] at hjson
      rw [Option.map_eq_none_iff.mp hjson.symm]
  | some e =>
      rw [hv] at hjson
      obtain ⟨e', hv', he⟩ := Option.map_eq_some_iff.mp hjson.symm
      rw [hv']
      exact congrArg Except.ok he.symm

/-! ## Two runs -/

/-- The entries are the same but for the numbers of their records, and for how their
histories are interleaved across modules. -/
structure Agree (e e' : Entry) : Prop where
  name : e.name = e'.name
  record : e.edition.record = e'.edition.record
  history : ∀ m, e.history.filter (·.1 = m) = e'.history.filter (·.1 = m)

section

variable (kept : Kept done r) (kept' : Kept done' r')
  (hregistered : ∀ x, x ∈ done.filterMap Call.registration? ↔
    x ∈ done'.filterMap Call.registration?)
  (hresolved : ∀ name m, resolved name m done = resolved name m done')

include kept kept' hregistered hresolved

theorem Kept.agree (he : r.find? name = some e) (he' : r'.find? name = some e') :
    Agree e e' := by
  have hhistory (m : Module) : e.history.filter (·.1 = m) = e'.history.filter (·.1 = m) := by
    rw [kept.history_eq he, kept'.history_eq he', filter_eq_resolved, filter_eq_resolved,
      hresolved]
  refine ⟨(name_of_find? he).trans (name_of_find? he').symm, ?_, hhistory⟩
  obtain ⟨before, offer, since, c, hdone, -, -, hc, -⟩ := kept.told name e he
  rw [name_of_find? he] at hdone
  have hmem : (name, c) ∈ done.filterMap Call.registration? := by
    refine List.mem_filterMap.mpr ⟨.register (.str name) offer, ?_, ?_⟩
    · rw [hdone]
      exact List.mem_append_right before List.mem_cons_self
    · exact Call.registration?_eq_some_iff.mpr ⟨offer, rfl, hc⟩
  rw [kept.record_eq he hmem, kept'.record_eq he' ((hregistered _).mp hmem),
    Record.setAll_congr hhistory]

theorem Kept.map_find?_congr {α : Type} {f : Entry → α} (hnames : r.names = r'.names)
    (hf : ∀ {e e' : Entry}, Agree e e' → f e = f e') (name : String) :
    (r.find? name).map f = (r'.find? name).map f := by
  by_cases hname : name ∈ r.names
  · obtain ⟨e, he⟩ := Option.isSome_iff_exists.mp (isSome_find?_iff.mpr hname)
    obtain ⟨e', he'⟩ := Option.isSome_iff_exists.mp (isSome_find?_iff.mpr (hnames ▸ hname))
    rw [he, he']
    exact congrArg some (hf (kept.agree kept' hregistered hresolved he he'))
  · have hname' : name ∉ r'.names := hnames ▸ hname
    rw [← isSome_find?_iff, Option.not_isSome_iff_eq_none] at hname hname'
    rw [hname, hname']

end

theorem result_map_get (r : Registry) (v : Json) :
    (r.get v).result.map Edition.record = (r.entry v).result.map (·.edition.record) := by
  rw [get, Logged.result_bind]
  cases (r.entry v).result <;> rfl

theorem result_map_history {α : Type} (f : List (Module × String) → α) (r : Registry) (v : Json) :
    (r.history v).result.map f = (r.entry v).result.map (f ·.history) := by
  rw [Registry.history, Logged.result_bind]
  cases (r.entry v).result <;> rfl

/-- Take two runs on empty registries, of calls that succeed and calls that fail. They
register the same records under the same names, in any order, and resolve for every
environment and module the same addresses in the same order, interleaved in any way; as a
resolve succeeds only for an environment that is there, each comes after the registration
of its environment. Then they end with the same names, the same record under each and,
module by module, the same history, and they are written the same. -/
theorem run_interleaving {r r' : Registry} (hr : r.entries = []) (hr' : r'.entries = [])
    {calls calls' : List Call}
    (hregistered : ∀ x, x ∈ (r.accepted calls).filterMap Call.registration? ↔
      x ∈ (r'.accepted calls').filterMap Call.registration?)
    (hresolved : ∀ name m,
      resolved name m (r.accepted calls) = resolved name m (r'.accepted calls')) :
    (r.run calls).names = (r'.run calls').names ∧
    (∀ v, ((r.run calls).get v).result.map Edition.record =
      ((r'.run calls').get v).result.map Edition.record) ∧
    (∀ v m, ((r.run calls).history v).result.map (List.filter (·.1 = m)) =
      ((r'.run calls').history v).result.map (List.filter (·.1 = m))) ∧
    (r.run calls).toJson = (r'.run calls').toJson ∧
    (r.run calls).fileText = (r'.run calls').fileText ∧
    ∀ path files, (r.run calls).save path files = (r'.run calls').save path files := by
  have kept := kept_run (kept_of_entries_eq_nil hr) calls
  have kept' := kept_run (kept_of_entries_eq_nil hr') calls'
  rw [List.nil_append] at kept kept'
  have hnames : (r.run calls).names = (r'.run calls').names := by
    refine List.Pairwise.eq_of_mem_iff (List.pairwise_map.mpr kept.sorted)
      (List.pairwise_map.mpr kept'.sorted) fun name => ?_
    rw [mem_names_run, mem_names_run, names, names, hr, hr']
    simp only [hregistered]
  have hfind {α : Type} {f : Entry → α} (hf : ∀ {e e' : Entry}, Agree e e' → f e = f e') :=
    kept.map_find?_congr kept' hregistered hresolved hnames hf
  have hjson : (r.run calls).toJson = (r'.run calls').toJson := by
    rw [toJson, toJson, map_entries kept.sorted, map_entries kept'.sorted, hnames]
    congr 1
    refine List.filterMap_congr fun name _ => hfind (fun agree => ?_) name
    rw [agree.name, agree.record]
  have htext : (r.run calls).fileText = (r'.run calls').fileText := by
    rw [fileText, fileText, hjson]
  have hsize : (r.run calls).size = (r'.run calls').size := by
    simpa [names, size] using congrArg List.length hnames
  refine ⟨hnames, fun v => ?_, fun v m => ?_, hjson, htext, save_congr htext hsize⟩
  · rw [result_map_get, result_map_get]
    exact result_map_entry_congr hnames (hfind Agree.record) v
  · rw [result_map_history, result_map_history]
    exact result_map_entry_congr hnames (hfind fun agree => agree.history m) v

/-- Two environments, and resolutions of two slots of one section of a record. -/
def forth : List Call :=
  [.register (.str "b") (.record escaping),
    .resolve (.str "b") (.str " INSURANCE_FUND ") (.str "i"),
    .resolve (.str "b") (.str "fee_pool") (.str "f"),
    .register (.str "a") (.record escaping),
    .resolve (.str "a") (.str "fee_pool") (.str "g")]

/-- The same in another order, and calls that fail. -/
def back : List Call :=
  [.resolve (.str "a") (.str "fee_pool") (.str "g"), .register (.str "a") (.record escaping),
    .register (.str "b") (.record escaping), .resolve (.str "b") (.str "fee_pool") (.str "f"),
    .resolve (.str "a") (.str "fee_pool") (.str "g"), .register (.str "a") (.record escaping),
    .resolve (.str "b") (.str "insurance_fund") (.str "i")]

/-- The two runs are alike, though the history of one environment differs as a whole. -/
theorem run_interleaving_forth_back :
    (run {} forth).names = ["a", "b"] ∧
    ((run {} forth).history (.str "b")).result ≠ ((run {} back).history (.str "b")).result ∧
    (∀ v, ((run {} forth).get v).result.map Edition.record =
      ((run {} back).get v).result.map Edition.record) ∧
    (run {} forth).fileText = (run {} back).fileText := by
  have hregistered : ∀ x, x ∈ (accepted {} forth).filterMap Call.registration? ↔
      x ∈ (accepted {} back).filterMap Call.registration? := by
    have hforth : (accepted {} forth).filterMap Call.registration? =
        [("b", escaping), ("a", escaping)] := by rfl
    have hback : (accepted {} back).filterMap Call.registration? =
        [("a", escaping), ("b", escaping)] := by rfl
    rw [hforth, hback]
    exact fun x => (List.Perm.swap _ _ []).mem_iff
  have hresolved : ∀ name m,
      resolved name m (accepted {} forth) = resolved name m (accepted {} back) := by
    intro name m
    by_cases ha : name = "a"
    · subst ha
      cases m <;> rfl
    · by_cases hb : name = "b"
      · subst hb
        cases m <;> rfl
      · have hforth : ∀ v ∈ (accepted {} forth).map Call.environment, v ≠ .str name := by
          change ∀ v ∈ ["b", "b", "b", "a", "a"].map Json.str, v ≠ .str name
          simp [Ne.symm ha, Ne.symm hb]
        have hback : ∀ v ∈ (accepted {} back).map Call.environment, v ≠ .str name := by
          change ∀ v ∈ ["a", "b", "b", "a", "b"].map Json.str, v ≠ .str name
          simp [Ne.symm ha, Ne.symm hb]
        rw [List.forall_mem_map] at hforth hback
        rw [resolved, resolved, filterMap_resolution?_eq_nil hforth,
          filterMap_resolution?_eq_nil hback]
  obtain ⟨-, hrecords, -, -, htext, -⟩ :=
    run_interleaving rfl rfl hregistered hresolved
  refine ⟨by rfl, ?_, hrecords, htext⟩
  have hforth : ((run {} forth).history (.str "b")).result =
      .ok [(.insuranceFund, "i"), (.feePool, "f")] := by rfl
  have hback : ((run {} back).history (.str "b")).result =
      .ok [(.feePool, "f"), (.insuranceFund, "i")] := by rfl
  rw [hforth, hback]
  simp

end PerpRollout.Registry
